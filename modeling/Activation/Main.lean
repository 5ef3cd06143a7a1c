import Activation.CommandLine.Program

namespace Activation.Main

-- The fault that a failed reading stands for. Opening a file gives the system's number of a fault
-- below zero, reading it gives the number itself.
def faultOf : IO.Error → ReadFault
  | .noFileOrDirectory _ _ _ => .notFound
  | .inappropriateType _ code _ =>
    if code = 20 || code + 20 = 0 then .notDirectory else .isDirectory
  | error => .other (toString error)

def look (path : String) : IO Found := do
  try
    let bytes ← IO.FS.readBinFile path
    match String.fromUTF8? bytes with
    | some content => return .file (.ok content)
    | none => return .file (.error .notText)
  catch error =>
    match faultOf error with
    | .other reason => return .file (.error (.other reason))
    | fault => return .nothing fault

-- The variables of the environment, each written with an equals sign and all ended by zeros.
def variablesOf (content : String) : List (String × String) :=
  (Text.pieces '\x00' content.toList).filterMap fun chars =>
    match chars.dropWhile (· ≠ '=') with
    | [] => none
    | _ :: value => some (String.ofList (chars.takeWhile (· ≠ '=')), String.ofList value)

def settings : IO (List (String × String)) := do
  try
    let bytes ← IO.FS.readBinFile "/proc/self/environ"
    return variablesOf ((String.fromUTF8? bytes).getD "")
  catch _ => return []

end Activation.Main

open Activation in
def main (words : List String) : IO UInt32 := do
  let settings ← Main.settings
  let directory ← IO.currentDir
  let output ← IO.getStdout
  let call : CommandLine.Call :=
    { words, settings, directory := directory.toString, isTerminal := ← output.isTty }
  let mut found : List (String × Found) := []
  for path in call.paths do
    found := (path, ← Main.look path) :: found
  let known := found
  let files : Snapshot := fun path => (known.lookup path).getD (.nothing .notFound)
  let outcome := call.outcome files
  IO.print outcome.output
  IO.eprint (outcome.complaint call.inColour)
  return outcome.code.toUInt32
