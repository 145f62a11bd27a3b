import Readout.Binary.Format
import Readout.Command.Evaluate
import Readout.Command.Options
import Readout.Context
import Readout.Text
import Readout.Toml.Document

/-!
# Invocations of the program

The words of a command line say what the program is to do (`Readout.Invocation`), which may be to
tell its version (`Readout.Release`).
-/

namespace Readout.Release

/-! ### The version of the program

The program knows its own version. The version that a working copy of it declares can
also be read from the project manifest that lies beside it
(`Readout.Release.declared`): the manifest counts only if it names this program.
-/

/-- The name of the program. -/
def name : String := "tracecalc"

/-- The version of the program. -/
def version : String := "0.3.0"

/-- The line that tells the version. -/
def line : String := name ++ " " ++ version

/-- Why a manifest can not be looked into. -/
inductive Fault
  /-- Its project section is no table. -/
  | noProjectTable
  /-- It goes beyond a limit. -/
  | excess (what : Excess)
  deriving DecidableEq, Repr, Inhabited

/-- The version in a project section, if the section is about this program. -/
def ofProject (project : Table Value) : Option Value :=
  match project.find? "name" with
  | some (.text n) => if n = name then project.find? "version" else none
  | _ => none

/-- **The version that a manifest declares** for this program, given what is found in the
place of the manifest. One that is missing, not readable or malformed declares none. -/
def declared : PathEntry → Except Fault (Option Value)
  | .missing | .refused _ => .ok none
  | .file manifest =>
    match Toml.parse manifest with
    | .error (.excess what) => .error (.excess what)
    | .error _ => .ok none
    | .ok t =>
      match t.find? "project" with
      | none => .ok none
      | some (.table project) => .ok (ofProject project)
      | some _ => .error .noProjectTable

end Readout.Release

namespace Readout

open Command

/-! ### What the program is asked to do

The words of a command line say what the program is to do
(`Readout.Invocation.ofWords`): options of the program as a whole, then the name of a
command, then the options and arguments of that command. Options of the program still
count where they stand in the place of a command (`Readout.Invocation.ofMisplaced`),
as they do behind two hyphens.

`Readout.Invocation.run` does what is asked for, given what is found at every path, and
tells what is printed and with which status the program ends.
-/

/-- **What the program is asked to do.** -/
inductive Invocation
  /-- To explain itself. -/
  | help
  /-- To tell its version. -/
  | version
  /-- To answer a request. -/
  | evaluate (request : Request)
  /-- To write a bit pattern of a format in decimal. -/
  | render (format : FloatFormat) (word : String)

namespace Invocation

/-! ### Reading the command line -/

/-- A setting of the program as a whole. -/
inductive ProgramSetting
  /-- Explain the program. -/
  | help
  /-- Tell the version. -/
  | version
  /-- Tell more about what is done. -/
  | verbose
  deriving DecidableEq, Repr, Inhabited

/-- The options of the program as a whole. -/
def programSwitches : List (Switch ProgramSetting) :=
  [⟨"version", some 'V', .flag .version⟩,
    ⟨"verbose", some 'v', .flag .verbose⟩,
    ⟨"help", none, .flag .help⟩]

/-- A setting of the command that evaluates. -/
inductive RequestSetting
  /-- Take this context file. -/
  | contextFile (path : String)
  /-- Carry out an assignment to a register. -/
  | register (text : String)
  /-- Carry out an assignment to a symbol. -/
  | symbol (text : String)
  /-- Show the tree. -/
  | showTree
  /-- Write the value in decimal. -/
  | decimal
  /-- Explain the program. -/
  | help
  deriving DecidableEq, Repr, Inhabited

/-- The options of the command that evaluates. -/
def requestSwitches : List (Switch RequestSetting) :=
  [⟨"context", some 'c', .valued .contextFile⟩,
    ⟨"reg", some 'r', .valued .register⟩,
    ⟨"sym", some 's', .valued .symbol⟩,
    ⟨"dump", none, .flag .showTree⟩,
    ⟨"decimal", some 'd', .flag .decimal⟩,
    ⟨"help", none, .flag .help⟩]

/-- What a setting changes in a request. Of several context files the last one counts;
assignments add up. -/
def RequestSetting.change (r : Request) : RequestSetting → Request
  | contextFile path => { r with contextFile := some (tidyPath path) }
  | register text => { r with registers := r.registers ++ [text] }
  | symbol text => { r with symbols := r.symbols ++ [text] }
  | showTree => { r with showTree := true }
  | decimal => { r with decimal := true }
  | help => r

/-- The options of a command that has none of its own. -/
def helpSwitch : List (Switch Unit) :=
  [⟨"help", none, .flag ()⟩]

/-- The request that settings make of the text of an expression. -/
def requestOf (settings : List RequestSetting) (expression : String) : Request :=
  settings.foldl RequestSetting.change ⟨expression, none, [], [], false, false⟩

/-- The command that evaluates an expression. Whether its context file can be a path at
all is asked before its argument is looked at. -/
def readEvaluate (words : List String) : Except Misuse Invocation := do
  let sorted ← sortOut requestSwitches true none words
  if sorted.settings.contains .help then return .help
  if let some path := (requestOf sorted.settings "").contextFile then
    if hasNull path then .error (.nullInPath path)
  let expression ← onlyArgument sorted.arguments
  return .evaluate (requestOf sorted.settings expression)

/-- A command that writes a bit pattern in decimal. -/
def readRender (format : FloatFormat) (words : List String) : Except Misuse Invocation := do
  let sorted ← sortOut helpSwitch true none words
  if sorted.settings.isEmpty then return .render format (← onlyArgument sorted.arguments)
  else return .help

/-- What a command makes of the words behind its name, if there is a command of that
name. -/
def command? (name : String) : Option (List String → Except Misuse Invocation) :=
  if name = "eval" then some readEvaluate
  else if name = "float" then some (readRender .binary32)
  else if name = "double" then some (readRender .binary64)
  else none

/-- What settings of the program as a whole ask for, whatever else stands on the command
line: the first of them that asks for anything. -/
def ofSettings (settings : List ProgramSetting) : Option Invocation :=
  settings.findSome? fun
    | .help => some .help
    | .version => some .version
    | .verbose => none

/-- What words ask for that should start with the name of a command and do not. They may
be options of the program that were taken for arguments, so they are read as such once
more; what is found behind those options does not count. -/
def ofMisplaced (name : String) (words : List String) : Except Misuse Invocation := do
  let sorted ← sortOut programSwitches false none (name :: words)
  match ofSettings sorted.settings with
  | some invocation => return invocation
  | none => .error (.unknownCommand name)

/-- **What the words of a command line ask for.** -/
def ofWords (words : List String) : Except Misuse Invocation := do
  let sorted ← sortOut programSwitches false none words
  match ofSettings sorted.settings, sorted.arguments with
  | some invocation, _ => return invocation
  | none, [] => .error .missingCommand
  | none, name :: rest =>
    match command? name with
    | some read => read rest
    | none => ofMisplaced name rest

/-! ### Running -/

/-- **How an invocation ends.** -/
inductive Outcome
  /-- It succeeded and prints a line. -/
  | printed (line : String)
  /-- It failed with a complaint. -/
  | failed (complaint : Complaint)
  /-- The command line makes no sense. -/
  | misused (misuse : Misuse)
  deriving DecidableEq, Repr, Inhabited

/-- Writes the bit pattern that a word spells in decimal. -/
def renderWord (format : FloatFormat) (word : String) : Outcome :=
  match Numeral.readInteger? word with
  | none => .misused (.notALiteral word)
  | some bits =>
    match format.render bits with
    | .ok line => .printed line
    | .error _ => .misused (.tooWide format.width word)

/-- What the program says about itself. -/
def helpText : String :=
  "Usage: " ++ Release.name ++ " [--version | -V] [--verbose | -v] COMMAND ...\n\n" ++
    "  eval EXPRESSION [--context | -c FILE] [--reg | -r NAME=VALUE]\n" ++
    "       [--sym | -s NAME=VALUE] [--dump] [--decimal | -d]\n" ++
    "  float BITS\n" ++
    "  double BITS"

/-- **Runs an invocation**, given what is found at every path. -/
def run (files : Files) : Invocation → Outcome
  | help => .printed helpText
  | version => .printed Release.line
  | evaluate request =>
    match request.answer files with
    | .ok line => .printed line
    | .error complaint => .failed complaint
  | render format word => renderWord format word

/-- What is said about files besides. -/
def warnings (files : Files) : Invocation → List String
  | evaluate request => request.warnings files
  | _ => []

/-! ### What the outside sees -/

/-- The status that the program ends with. -/
def Outcome.status : Outcome → Nat
  | printed _ => 0
  | failed _ => 1
  | misused (.nullInPath _) => 1
  | misused _ => 2

/-- What is printed. -/
def Outcome.output : Outcome → String
  | printed line => Text.plain line ++ "\n"
  | _ => ""

/-- What is printed as an error. -/
def Outcome.errorOutput : Outcome → String
  | printed _ => ""
  | failed complaint => Text.plain complaint.message ++ "\n"
  | misused misuse => Text.plain misuse.message ++ "\n"

/-- **How a command line ends**, given what is found at every path. -/
def runWords (files : Files) (words : List String) : Outcome :=
  match ofWords words with
  | .ok invocation => invocation.run files
  | .error misuse => .misused misuse

end Invocation

end Readout
