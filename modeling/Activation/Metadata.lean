import Activation.Name
import Activation.Toml.Document

namespace Activation

inductive Environment where
  | servlet
  | reactive
  | standalone
deriving DecidableEq

instance : Inhabited Environment := ⟨.standalone⟩

inductive Requirement where
  | web
  | servlet
  | reactive
deriving DecidableEq

def Environment.text : Environment → String
  | .servlet => "servlet"
  | .reactive => "reactive"
  | .standalone => "standalone"

def Environment.ofText? : String → Option Environment
  | "servlet" => some .servlet
  | "reactive" => some .reactive
  | "standalone" => some .standalone
  | _ => none

def Requirement.text : Requirement → String
  | .web => "web"
  | .servlet => "servlet"
  | .reactive => "reactive"

def Requirement.ofText? : String → Option Requirement
  | "web" => some .web
  | "servlet" => some .servlet
  | "reactive" => some .reactive
  | _ => none

-- A web environment is one of the two that serve requests.
def Requirement.isMetBy : Requirement → Environment → Bool
  | .web, environment => environment = .servlet || environment = .reactive
  | .servlet, environment => environment = .servlet
  | .reactive, environment => environment = .reactive

def Environment.decode : Toml.Decoder Environment :=
  Toml.asCase Environment.ofText? "an environment"

def Requirement.decode : Toml.Decoder Requirement :=
  Toml.asCase Requirement.ofText? "an environment requirement"

structure Hints where
  onTypes : List String := []
  onInstances : List String := []
  onEnvironment : Option Requirement := none
  -- Modules with a lower order go first where nothing else decides.
  order : Option Int := none
  -- Modules that come later than this one.
  before : List String := []
  -- Modules that come earlier than this one.
  after : List String := []
deriving DecidableEq, Inhabited

open Toml in
def Hints.decode : Decoder Hints := fun value => do
  let fields ← asFields value
  let names := asList asString
  return {
    onTypes := ← fields.withDefault "on_types" 0 names []
    onInstances := ← fields.withDefault "on_instances" 1 names []
    onEnvironment := ← fields.optional "on_environment" 2 Requirement.decode
    order := ← fields.optional "order" 3 asInt32
    before := ← fields.withDefault "before" 4 names []
    after := ← fields.withDefault "after" 5 names [] }

structure Metadata where
  modules : NameMap Hints
deriving DecidableEq, Inhabited

namespace Metadata

def fileName : String := "autoconf.metadata.toml"

def empty : Metadata := ⟨.empty⟩

def insert (metadata : Metadata) (module : String) (hints : Hints) : Metadata :=
  ⟨metadata.modules.insert module hints⟩

-- The hints of the second store win for every module that it declares.
def merge (metadata other : Metadata) : Metadata :=
  ⟨metadata.modules.insertAll other.modules.entries⟩

def get? (metadata : Metadata) (module : String) : Option Hints :=
  metadata.modules.get? module

-- Whether a module has hints, if only empty ones.
def knows (metadata : Metadata) (module : String) : Bool :=
  (metadata.get? module).isSome

def orderOf (metadata : Metadata) (module : String) : Int :=
  ((metadata.get? module).bind Hints.order).getD 0

def before (metadata : Metadata) (module : String) : List String :=
  ((metadata.get? module).map Hints.before).getD []

def after (metadata : Metadata) (module : String) : List String :=
  ((metadata.get? module).map Hints.after).getD []

def size (metadata : Metadata) : Nat :=
  metadata.modules.size

open Toml in
def ofEntries (entries : Entries) : Except Fault Metadata := do
  let modules ← (Fields.named entries).withDefault "modules" 0 (asTable Hints.decode) []
  return ⟨.ofList modules⟩

def parse (content : String) : Except Toml.Fault Metadata := do
  ofEntries (← Toml.parse content)

@[simp]
theorem get?_insert (metadata : Metadata) (module : String) (hints : Hints) (other : String) :
    (metadata.insert module hints).get? other =
      if other = module then some hints else metadata.get? other :=
  metadata.modules.get?_insert module hints other

end Metadata

end Activation
