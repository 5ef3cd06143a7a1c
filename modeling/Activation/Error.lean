import Activation.Files
import Activation.Text
import Activation.Toml.Text

namespace Activation

inductive StoreFault where
  | noCandidates (point : String)
  | invalid (path : String) (fault : Toml.Fault)
  | unreadable (path : String) (fault : ReadFault)
deriving DecidableEq

inductive Error where
  | stores (fault : StoreFault)
  | invalidExclusions (modules : List String)
  -- Each member comes after the next one, and the last after the first.
  | orderingCycle (members : List String)
  | verdictCount (filter : String) (expected actual : Nat)
  | extension (component reason : String)
  | invalidProperty (key value : String)
deriving DecidableEq

def StoreFault.invalidAt (path : String) : String :=
  s!"Invalid file at {path}: "

def StoreFault.message : StoreFault → String
  | .noCandidates point =>
    s!"No candidate modules found for extension point '{point}'. If you are using a custom " ++
      "packaging, make sure that autoconf.catalog.toml is present in a catalog root and " ++
      "registers that key."
  | .invalid path fault => invalidAt path ++ fault.message
  | .unreadable path fault => s!"I/O error at {path}: " ++ fault.message

def Error.message : Error → String
  | .stores fault => fault.message
  | .invalidExclusions modules =>
    "The following modules could not be excluded because they are not auto-configuration " ++
      "candidates:\n" ++ Text.join "\n" (modules.map fun module => "\t- " ++ module)
  | .orderingCycle members => "Ordering cycle detected between: " ++ Text.join " -> " members
  | .verdictCount filter expected actual =>
    s!"Filter '{filter}' returned {actual} verdicts for {expected} candidates"
  | .extension component reason => s!"{component} failed: {reason}"
  | .invalidProperty key value => s!"Invalid value for property '{key}': {value}"

end Activation
