import Activation.Name
import Activation.Order.Sort
import Activation.Site

namespace Activation

structure Entry where
  configurations : List String
  exclusions : NameSet
  isDisabled : Bool
deriving DecidableEq

namespace Entry

def ofResolved (configurations : List String) (exclusions : NameSet) : Entry :=
  ⟨configurations, exclusions, false⟩

def disabled : Entry := ⟨[], .empty, true⟩

end Entry

structure Import where
  site : Site
  module : String
deriving DecidableEq

structure Batch where
  precedence : Precedence
  -- For every module the first site that introduced it.
  origins : List (String × Site)
  entries : List Entry

namespace Batch

def start (precedence : Precedence) : Batch := ⟨precedence, [], []⟩

def size (batch : Batch) : Nat := batch.entries.length

-- A module keeps the site that it has.
def trace (site : Site) (origins : List (String × Site)) (module : String) :
    List (String × Site) :=
  if (origins.lookup module).isSome then origins else origins ++ [(module, site)]

def record (batch : Batch) (site : Site) (entry : Entry) : Batch :=
  { batch with
    origins := entry.configurations.foldl (trace site) batch.origins
    entries := batch.entries ++ [entry] }

def process (batch : Batch) (site : Site) (resolved : Except Error Entry) :
    Except Error Unit × Batch :=
  match resolved with
  | .ok entry => (.ok (), batch.record site entry)
  | .error error => (.error error, batch)

def isExcluded (batch : Batch) (module : String) : Bool :=
  batch.entries.any fun entry => entry.exclusions.contains module

def merged (batch : Batch) : List String :=
  Name.distinct ((batch.entries.flatMap Entry.configurations).filter fun module =>
    !batch.isExcluded module)

def finalize (batch : Batch) : Except Error (List Import) :=
  if batch.entries.isEmpty then .ok []
  else
    (batch.precedence.sort batch.merged).map fun sorted =>
      sorted.filterMap fun module =>
        (batch.origins.lookup module).map fun site => ⟨site, module⟩

end Batch

end Activation
