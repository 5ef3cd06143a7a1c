import Activation.Batch
import Activation.Filter
import Activation.Listener
import Activation.Resolver
import Activation.Text

namespace Activation

structure Assembly (σ : Type) where
  engine : Engine := {}
  host : Host := {}
  filters : List (Filter σ) := Filter.builtins
  listeners : List (Listener σ) := []

namespace Assembly

variable {σ : Type}

inductive Choice (σ : Type) where
  | engine (engine : Engine)
  | host (host : Host)
  -- Filters instead of those chosen so far.
  | filters (filters : List (Filter σ))
  | filter (filter : Filter σ)
  | listener (listener : Listener σ)

def choose (assembly : Assembly σ) : Choice σ → Assembly σ
  | .engine engine => { assembly with engine }
  | .host host => { assembly with host }
  | .filters filters => { assembly with filters }
  | .filter filter => { assembly with filters := assembly.filters ++ [filter] }
  | .listener listener => { assembly with listeners := assembly.listeners ++ [listener] }

def ofChoices (choices : List (Choice σ)) : Assembly σ :=
  choices.foldl choose {}

def build (assembly : Assembly σ) : Resolver σ :=
  { engine := assembly.engine
    host := assembly.host
    filters := assembly.filters.map (Filter.inject assembly.host)
    listeners := assembly.listeners.map (Listener.inject assembly.host) }

end Assembly

end Activation

namespace Activation.Describe

def withFields (kind : String) (fields : List String) : String :=
  kind ++ " \x7b " ++ Text.join ", " fields ++ " \x7d"

def filters {σ : Type} (filters : List (Filter σ)) : String :=
  withFields "FilterChain" ["filters: " ++ Text.quotedList "[" "]" (filters.map Filter.name)]

def listeners {σ : Type} (listeners : List (Listener σ)) : String :=
  withFields "ImportNotifier"
    ["listeners: " ++ Text.quotedList "[" "]" (listeners.map Listener.name)]

def layers (sources : List PropertySource) : String :=
  withFields "LayeredProperties" ["layers: " ++ toString sources.length]

def environment : Environment → String
  | .servlet => "Servlet"
  | .reactive => "Reactive"
  | .standalone => "Standalone"

def host (host : Host) : String :=
  withFields "ResolutionContext" ["environment: " ++ environment host.environment, ".."]

def entry (entry : Entry) : String :=
  withFields "ResolutionEntry"
    ["configurations: " ++ Text.quotedList "[" "]" entry.configurations,
     "exclusions: " ++ Text.quotedList "\x7b" "\x7d" entry.exclusions.members,
     "disabled: " ++ (if entry.isDisabled then "true" else "false")]

def batch (batch : Batch) : String :=
  withFields "ImportGroup"
    ["entries: [" ++ Text.join ", " (batch.entries.map entry) ++ "]", ".."]

end Activation.Describe
