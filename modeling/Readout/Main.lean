import Readout.Command.Invocation

/-!
# The program

The outermost layer: it looks at the path that an invocation needs, prints what the
invocation leads to, and ends with its status.
-/

namespace Readout

/-- The number of a system error, whichever sign it comes with. -/
def errorNumber (code : UInt32) : Nat :=
  if code.toNat < 0x80000000 then code.toNat else 0x100000000 - code.toNat

/-- What a failure to read a path says about the path. A path that leads through a file
leads nowhere. -/
def entryOfError : IO.Error → IO PathEntry
  | .noFileOrDirectory .. => return .missing
  | .inappropriateType _ code reason =>
    if errorNumber code = Refusal.isDirectory.code then return .refused .isDirectory
    else if errorNumber code = 20 then return .missing
    else return .refused ⟨errorNumber code, reason⟩
  | .invalidArgument _ code reason =>
    if errorNumber code = Refusal.nameTooLong.code then return .refused .nameTooLong
    else return .refused ⟨errorNumber code, reason⟩
  | .permissionDenied _ code reason => return .refused ⟨errorNumber code, reason⟩
  | e => throw e

/-- What is found at a path. -/
def entryAt (path : String) : IO PathEntry := do
  try
    return .file (← IO.FS.readFile path)
  catch e => entryOfError e

/-- What an invocation finds at the path that it needs. -/
def neededFiles : Except Command.Misuse Invocation → IO Files
  | .ok (.evaluate request) =>
    match request.consultedFile with
    | some path => do
      let entry ← entryAt path
      return fun p => if p = path then entry else .missing
    | none => return fun _ => .missing
  | _ => return fun _ => .missing

end Readout

open Readout in
/-- Runs the program on the words of its command line. -/
def main (words : List String) : IO UInt32 := do
  let invocation := Invocation.ofWords words
  let files ← neededFiles invocation
  if let .ok i := invocation then
    for warning in i.warnings files do
      IO.eprintln warning
  let outcome := Invocation.runWords files words
  IO.print outcome.output
  IO.eprint outcome.errorOutput
  return outcome.status.toUInt32
