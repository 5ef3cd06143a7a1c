import Activation.Metadata
import Activation.Name
import Activation.Property

namespace Activation

structure Host where
  types : String → Bool := fun _ => false
  instances : String → Bool := fun _ => false
  properties : PropertySource := .document []
  environment : Environment := .standalone

namespace Host

def empty : Host := {}

instance : Inhabited Host := ⟨empty⟩

def ofNames (types instances : List String) (properties : PropertySource)
    (environment : Environment) : Host :=
  { types := (NameSet.ofList types).contains
    instances := (NameSet.ofList instances).contains
    properties
    environment }

end Host

inductive Capability where
  | types (isKnown : String → Bool)
  | instances (isRegistered : String → Bool)
  | properties (source : PropertySource)
  | environment (kind : Environment)

def Host.capabilities (host : Host) : List Capability :=
  [.types host.types, .instances host.instances, .properties host.properties,
    .environment host.environment]

-- What an extension has been handed so far, the latest last. Of a kind that was handed out several
-- times the latest counts.
abbrev Granted : Type := List Capability

namespace Granted

def grant (granted : Granted) (capability : Capability) : Granted :=
  granted ++ [capability]

def inject (host : Host) (granted : Granted) : Granted :=
  host.capabilities.foldl grant granted

theorem inject_eq (host : Host) (granted : Granted) :
    inject host granted = granted ++ host.capabilities := by
  simp [inject, Host.capabilities, grant]

def types? (granted : Granted) : Option (String → Bool) :=
  granted.reverse.findSome? fun
    | .types isKnown => some isKnown
    | _ => none

def instances? (granted : Granted) : Option (String → Bool) :=
  granted.reverse.findSome? fun
    | .instances isRegistered => some isRegistered
    | _ => none

def properties? (granted : Granted) : Option PropertySource :=
  granted.reverse.findSome? fun
    | .properties source => some source
    | _ => none

def environment? (granted : Granted) : Option Environment :=
  granted.reverse.findSome? fun
    | .environment kind => some kind
    | _ => none

end Granted

end Activation
