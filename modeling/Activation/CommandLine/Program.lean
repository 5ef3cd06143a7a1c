import Activation.CommandLine.Arguments
import Activation.CommandLine.Text

namespace Activation.CommandLine

structure Call where
  words : List String
  settings : List (String × String)
  directory : String
  -- Whether the output is read on a terminal.
  isTerminal : Bool

inductive Failure where
  | resolve (failure : Session.Failure)
  | candidates (fault : StoreFault)
deriving DecidableEq

def Failure.message : Failure → String
  | .resolve failure => failure.message
  | .candidates fault => fault.message

inductive Outcome where
  | printed (text : String)
  | failed (failure : Failure)
  | misused (misuse : Misuse)
deriving DecidableEq

def Outcome.code : Outcome → Nat
  | .printed _ => 0
  | .failed _ => 1
  | .misused _ => 2

def Outcome.output : Outcome → String
  | .printed text => text
  | _ => ""

def errorMark (inColour : Bool) : String :=
  Terminal.styled inColour .boldRed "error" ++ ": "

def Outcome.complaint (inColour : Bool) : Outcome → String
  | .printed _ => ""
  | .failed failure => errorMark inColour ++ failure.message ++ "\n"
  | .misused misuse => "error: " ++ misuse.message ++ "\n\nFor more information, try '--help'.\n"

namespace Call

def inColour (call : Call) : Bool := Terminal.inColour call.settings call.isTerminal

def rootsOr (call : Call) (roots : List String) : List String :=
  if roots.isEmpty then [call.directory] else roots

def run (call : Call) (files : Snapshot) : Command → Outcome
  | .overview => .printed (overviewText call.inColour)
  | .resolve session roots json report =>
    match Session.resolveFile files session roots call.settings with
    | .ok resolution =>
      .printed (if json then resolutionJson report resolution
        else resolutionText call.inColour report resolution)
    | .error failure => .failed (.resolve failure)
  | .candidates roots point =>
    match listCandidates files (call.rootsOr roots) point with
    | .ok candidates => .printed (candidatesText call.inColour point candidates)
    | .error fault => .failed (.candidates fault)

def outcome (call : Call) (files : Snapshot) : Outcome :=
  match read call.settings call.words with
  | .ok (.run command) => call.run files command
  | .ok .version => .printed versionText
  | .ok .help => .printed helpText
  | .error misuse => .misused misuse

def filesOf (root : String) : List String :=
  [Path.join root Catalog.fileName, Path.join root Metadata.fileName]

def paths (call : Call) : List String :=
  match read call.settings call.words with
  | .ok (.run (.resolve session roots _ _)) =>
    session :: (Session.rootsFor session roots).flatMap filesOf
  | .ok (.run (.candidates roots _)) => (call.rootsOr roots).flatMap filesOf
  | _ => []

end Call

end Activation.CommandLine
